import InfixCalc.Calculator
import InfixCalc.CommandLine.Options

/-!
# Sessions

A session carries out what the command line asks for. It reads the statements line by line, prints
the value or the program of each, and ends at the first that fails. What it does is a function of
the arguments, the text of the file and the random numbers.
-/

namespace InfixCalc.CommandLine

/-- How a session ends, and what it prints itself. -/
structure Outcome where
  code : Nat
  stdout : String
  stderr : String
  deriving DecidableEq, Repr

namespace Outcome

/-- Nothing left to do. -/
def success : Outcome := ⟨0, "", ""⟩

/-- A failure with a message for the user. -/
def failure (message : String) : Outcome := ⟨1, "", message ++ "\n"⟩

/-- The end of a session that breaks off because an error has no text. What the runtime tells of it
on its own account, beside the exit code, is left out. -/
def broken : Outcome := ⟨101, "", ""⟩

/-- The end of a session at a statement without a value. -/
def ofError (error : CalculationError) : Outcome :=
  match error.message? with
  | some message => failure message
  | none => broken

/-- What is printed before comes first. -/
def after (o : Outcome) (stdout stderr : String) : Outcome :=
  { o with stdout := stdout ++ o.stdout, stderr := stderr ++ o.stderr }

end Outcome

/-! ### Statements -/

/-- Whether a line holds a statement and not just a comment or nothing. -/
def isStatement : List Char → Bool
  | [] => false
  | '/' :: '/' :: _ => false
  | _ => true

/-- The statements of a text, one in a line, without the blanks around them. -/
def statements (text : String) : List String :=
  (((Text.lines text.toList).map Text.trim).filter isStatement).map String.ofList

/-- What is printed for a statement, with how many random numbers that takes. -/
structure Answer where
  text : String
  drawn : Nat

/-- Answer a statement, and tell what happens in doing so. -/
def answer (options : Options) (source : Source) (draws : Draws) (statement : String) :
    List Event × Except CalculationError Answer :=
  let compilation := compile statement
  match compilation.result with
  | .error fault => (compilation.log, .error (.parse { fault with statement }))
  | .ok program =>
    if options.showCode then (compilation.log, .ok ⟨program.text, 0⟩)
    else
      let result := program.evaluate source draws
      let log := compilation.log ++ program.evaluationLog result
      match result with
      | .ok value =>
        (log ++ [.answered statement value], .ok ⟨Number.render value, program.drawCount⟩)
      | .error error => (log, .error (.eval error))

/-! ### Events -/

/-- The part of the program in which an event happens. -/
def origin : Event → String
  | .reduced .. | .shifted _ | .compiled .. | .rejected .. => "revpol::interpreter::parser::core"
  | .evaluated .. => "revpol::interpreter::evaluator::core"
  | .answered .. => "revpol"

/-- Whether an event is shown to a user who asked for them. -/
def isShown (e : Event) : Bool := e.level ≠ .trace

/-- The line that shows an event. The name of its level takes up five places. -/
def eventLine (e : Event) : String :=
  let level := e.level.name
  let blanks := String.ofList (List.replicate (5 - level.length) ' ')
  "[" ++ level ++ blanks ++ " " ++ origin e ++ "] " ++ e.message ++ "\n"

/-- The lines that are shown of a list of events. -/
def logText (options : Options) (log : List Event) : String :=
  if options.verbose then String.join ((log.filter isShown).map eventLine) else ""

/-! ### Runs -/

/-- Answer statements in turn, up to the first that fails. -/
def answerAll (options : Options) (source : Source) : Draws → List String → Outcome
  | _, [] => .success
  | draws, statement :: rest =>
    let (log, result) := answer options source draws statement
    match result with
    | .ok a =>
      (answerAll options source (draws.drop a.drawn) rest).after (a.text ++ "\n")
        (logText options log)
    | .error error => (Outcome.ofError error).after "" (logText options log)

/-- Carry out the options, given the text with the statements or why it cannot be read. -/
def Options.run (options : Options) (text : Except String String) (draws : Draws) : Outcome :=
  match Bindings.ofPairs options.bindings with
  | .error error => .failure error.message
  | .ok bindings =>
    match text with
    | .error reason =>
      .failure ("Failed to read the input file '" ++ options.contents ++ "': " ++ reason)
    | .ok text => answerAll options (.ofBindings bindings) draws (statements text)

/-- The text of the file, or the statement itself. -/
def Options.text (options : Options) (fileText : String → Except String String) :
    Except String String :=
  if options.file then fileText options.contents else .ok options.contents

/-! ### Notices -/

/-- The version that is shown to the user. -/
def versionText : String := "revpol 0.1.0\n"

/-- The instructions for use. -/
def helpText : String :=
  "revpol compiles a math statement to reverse-Polish form and evaluates it\n\n"
    ++ "Usage: revpol [OPTIONS] <CONTENTS>\n\n"
    ++ "Arguments:\n"
    ++ "  <CONTENTS>  The statement, or the path of a statement file with `--file`\n\n"
    ++ "Options:\n"
    ++ "  -f, --file              Tells revpol to read statements from a file, one per line, "
    ++ "instead of taking the statement itself\n"
    ++ "  -v, --var <NAME=VALUE>  Binds a variable, as `NAME=VALUE`. May be repeated\n"
    ++ "  -p, --postfix           Prints the compiled postfix program instead of evaluating it\n"
    ++ "      --verbose           Logs compilation and evaluation details\n"
    ++ "  -h, --help              Print help\n"
    ++ "  -V, --version           Print version\n"

/-- The end of a session whose options are not carried out. -/
def Refusal.outcome : Refusal → Outcome
  | .usage error => ⟨2, "", Text.plain error.notice⟩
  | .help => ⟨0, helpText, ""⟩
  | .version => ⟨0, versionText, ""⟩

/-- A whole session. -/
def run (arguments : List String) (fileText : String → Except String String) (draws : Draws) :
    Outcome :=
  match Options.ofArguments arguments with
  | .error refusal => refusal.outcome
  | .ok options => options.run (options.text fileText) draws

end InfixCalc.CommandLine

import InfixCalc.CommandLine.Session

/-!
# The program

Reads the command line and the file that it names, and prints what the session says.
-/

namespace InfixCalc.CommandLine

/-- The number that the system gives to a failure. Some failures come with it negated. -/
def failureCode? : IO.Error → Option UInt32
  | .noFileOrDirectory _ code _ | .noSuchThing _ code _ | .permissionDenied _ code _
  | .inappropriateType _ code _ | .invalidArgument _ code _ | .otherError code _ =>
    some (if code < 0x80000000 then code else 0 - code)
  | _ => none

/-- What the system says of the failures that reading a file can meet. -/
def failureText? : UInt32 → Option String
  | 2 => some "No such file or directory"
  | 13 => some "Permission denied"
  | 20 => some "Not a directory"
  | 21 => some "Is a directory"
  | 36 => some "File name too long"
  | _ => none

/-- Why a file cannot be read, in the words of the system. -/
def readFailure (error : IO.Error) : String :=
  match failureCode? error with
  | some code =>
    match failureText? code with
    | some text => s!"{text} (os error {code})"
    | none => toString error
  | none => toString error

/-- The text of a file, or why it cannot be read. -/
def readText (path : String) : IO (Except String String) := do
  try
    let bytes ← IO.FS.readBinFile path
    return match String.fromUTF8? bytes with
      | some text => .ok text
      | none => .error "stream did not contain valid UTF-8"
  catch error => return .error (readFailure error)

/-- A sequence of random numbers that nobody can foretell. -/
def freshDraws : IO Draws := do
  let bytes ← IO.getRandomBytes 8
  return .ofSeed (bytes.toList.foldl (fun seed byte ↦ seed * 256 + byte.toUInt64) 0)

/-- Print what a session says. -/
def Outcome.print (outcome : Outcome) : IO UInt32 := do
  IO.print outcome.stdout
  IO.eprint outcome.stderr
  return UInt32.ofNat outcome.code

/-- Run a session, reading its file if it names one. -/
def perform (arguments : List String) : IO UInt32 := do
  match Options.ofArguments arguments with
  | .error refusal => refusal.outcome.print
  | .ok options =>
    let text ← if options.file then readText options.contents else pure (.ok options.contents)
    let draws ← freshDraws
    (options.run text draws).print

end InfixCalc.CommandLine

/-- Run a session on the arguments of the process. -/
def main (arguments : List String) : IO UInt32 := InfixCalc.CommandLine.perform arguments

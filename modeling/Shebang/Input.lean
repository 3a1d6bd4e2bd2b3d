import Shebang.Diagnostic
import Shebang.ExitCode
import Shebang.FileSystem

/-!
Inputs named on a command line, and what can go wrong when one is read.
-/

namespace Shebang

inductive SystemFault where
  | missing
  | directory
  | permission
  | other
  deriving DecidableEq, Repr

def SystemFault.ofNumber (n : Int) : SystemFault :=
  if n = 2 then .missing
  else if n = 21 then .directory
  else if n = 1 ∨ n = 13 then .permission
  else .other

/-- An error of the system. The reason may be unknown; `display` is what the error says as a
whole. -/
structure SystemError where
  fault : SystemFault
  reason : Option Text
  display : Text
  deriving DecidableEq, Repr

inductive InputFailure where
  | system (cause : SystemError)
  | undecodable (cause : Utf8.DecodeError)
  /-- A failure that has nothing to do with reading. -/
  | other (display : Text)
  deriving DecidableEq, Repr

namespace InputFailure

def ofRefusal (why : Refusal) (path : Text) : InputFailure :=
  .system ⟨.ofNumber why.number, some why.reason, (OpenError.refused why path).message⟩

def exitCode : InputFailure → ExitCode
  | .system ⟨.missing, _, _⟩ => .fileNotFound
  | .system ⟨.directory, _, _⟩ => .fileNotFound
  | .system ⟨.permission, _, _⟩ => .permissionDenied
  | .system ⟨.other, _, _⟩ => .ioError
  | .undecodable _ => .encodingError
  | .other _ => .failure

def display : InputFailure → Text
  | .system cause => cause.display
  | .undecodable cause => cause.message
  | .other display => display

/-- What the user is told: the reason, or all of the error where the reason is empty. -/
def reason : InputFailure → Text
  | .system ⟨_, some (c :: reason), _⟩ => c :: reason
  | .system cause => cause.display
  | .undecodable cause =>
    "not valid UTF-8 (" ++ cause.fault.message ++ " at byte " ++ Text.ofNat cause.position ++ ")"
  | .other display => display

def report (failure : InputFailure) (label : Text) : Text := label ++ ": " ++ failure.reason

def diagnostic (failure : InputFailure) (label : Text) : Diagnostic :=
  ⟨.error, "Cannot read " ++ label ++ ": " ++ failure.display⟩

end InputFailure

def stdinMark : Text := "-"

def inputLabel (argument : Text) : Text := if argument = stdinMark then "<stdin>" else argument

inductive InputListError where
  | noPaths
  | stdinTwice
  deriving DecidableEq, Repr

def InputListError.message : InputListError → Text
  | .noPaths => "No input paths given (use '-' to read from STDIN)."
  | .stdinTwice => "'-' (STDIN) may be given at most once."

def requireInputs (arguments : List Text) : Except InputListError (List Text) :=
  if arguments = [] then .error .noPaths
  else if 1 < arguments.count stdinMark then .error .stdinTwice
  else .ok arguments

/-- Why an input has no text. A path with a NUL is no failure of the input but of the run. -/
inductive InputFault where
  | embeddedNul
  | failed (failure : InputFailure)
  deriving DecidableEq, Repr

def inputBytes (fs : FileSystem) (stdin : Bytes) (argument : Text) : Except InputFault Bytes :=
  if argument = stdinMark then .ok stdin
  else match fs.read (Path.ofText argument) with
    | .ok bytes => .ok bytes
    | .error .embeddedNul => .error .embeddedNul
    | .error (.refused why path) => .error (.failed (.ofRefusal why path))

def readInput (fs : FileSystem) (stdin : Bytes) (argument : Text) : Except InputFault Text := do
  let bytes ← inputBytes fs stdin argument
  match Utf8.decode bytes with
  | .ok text => pure text
  | .error e => throw (.failed (.undecodable e))

end Shebang

import Shebang.CommandLine.Error
import Shebang.Config.Source
import Shebang.Log.Format
import Shebang.Terminal.Console

/-!
Runs of the program. A run takes what it needs to know from a world that does not change, and leaves
behind what it wrote and how it ended.
-/

namespace Shebang.CommandLine

/-- What a run can see. The reader of TOML is no part of the program, and neither are the places at
which the lines of its text stand. No two of them leave the same diagnostic, so the diagnostic tells
its place. -/
structure World where
  files : FileSystem
  toml : Toml.Parser
  places : Diagnostic → Log.Place
  workingDirectory : Except Refusal Path
  stdin : Bytes
  environment : Environment
  terminal : Bool

/-- A fault that no part of the program deals with. -/
inductive Fault where
  | numeral (cause : Text.NumeralError)
  | load (cause : LoadError)
  deriving DecidableEq, Repr

def Fault.message : Fault → Text
  | .numeral cause => cause.message
  | .load cause => cause.message

/-- How a run ends. One that ends in a fault has failed. -/
inductive Ending where
  | exit (code : Nat)
  | fault (cause : Fault)
  deriving DecidableEq, Repr

def Ending.code : Ending → Nat
  | .exit code => code
  | .fault _ => ExitCode.failure.code

/-- A part of a run: it writes, and it yields a value or ends the run. -/
abbrev Program (α : Type) := ExceptT Ending (Recorded Emission) α

namespace Program

def emit (es : List Emission) : Program Unit := ExceptT.lift (Recorded.record es)

def fail {α : Type} (cause : Fault) : Program α := throw (.fault cause)

def usageError {α : Type} (color : Bool) (s : Scope) (e : UsageError) : Program α := do
  emit [.err ((Console.mk color).echo (e.report s) true)]
  throw (.exit UsageError.code)

def commandError {α : Type} (color : Bool) (e : CommandError) : Program α := do
  emit [(Console.mk color).plainFailure e.message]
  throw (.exit e.exitCode.code)

end Program

structure Outcome where
  ending : Ending
  emissions : List Emission
  deriving DecidableEq, Repr

namespace Outcome

def output (o : Outcome) : Text := Emission.outputOf o.emissions

def errors (o : Outcome) : Text := Emission.errorsOf o.emissions

/-- The outcome of a whole run. A program that does not end early ends with the code it yields. -/
def ofProgram (p : Program ExitCode) : Outcome where
  ending :=
    match (ExceptT.run p).value with
    | .ok code => .exit code.code
    | .error ending => ending
  emissions := (ExceptT.run p).log

end Outcome

structure Session where
  verbosity : Int
  console : Console
  log : Log.Setup
  places : Diagnostic → Log.Place

namespace Session

/-- The line of a diagnostic, if the log takes it. -/
def logLines (s : Session) (d : Diagnostic) : List Emission :=
  if s.log.level ≤ Log.severityLevel d.severity then
    [.err (s.log.line (s.places d) d ++ ['\n'])]
  else []

def record (s : Session) (d : Diagnostic) : Program Unit := Program.emit (s.logLines d)

def traced {α : Type} (s : Session) (x : Traced α) : Program α := do
  Program.emit (x.log.flatMap s.logLines)
  pure x.value

def attempt {ε α : Type} (s : Session) (x : Attempt ε α) : Program (Except ε α) :=
  s.traced (ExceptT.run x)

def print (s : Session) (texts : List Text) : Program Unit :=
  Program.emit (texts.map s.console.printLine)

def error (s : Session) (text : Text) : Program Unit := Program.emit [s.console.errorLine text]

end Session

end Shebang.CommandLine

import Shebang.CommandLine.OptionValues
import Shebang.CommandLine.Session
import Shebang.Recognize
import Shebang.Report.Scan

/-!
The command that classifies scripts. Each input is read and reported by itself; a failure is kept as
its exit code.
-/

namespace Shebang.CommandLine

/-- Reads one input. A failure is reported, and its exit code is what is left of the input. -/
def scanInput (w : World) (s : Session) (argument : Text) :
    Program (Except ExitCode ScanItem) := do
  let label := inputLabel argument
  match readInput w.files w.stdin argument with
  | .error .embeddedNul => Program.fail (.load (.notOpened .embeddedNul))
  | .error (.failed failure) =>
    s.record (failure.diagnostic label)
    s.error (failure.report label)
    pure (.error failure.exitCode)
  | .ok text =>
    let script ← s.traced (recognizeTraced text)
    s.record ⟨.info, label ++ ": " ++ script.tag.name⟩
    pure (.ok ⟨label, script⟩)

def results {α : Type} (done : List (Except ExitCode α)) : List α := done.filterMap Except.toOption

def failures {α : Type} (done : List (Except ExitCode α)) : List ExitCode :=
  done.filterMap fun
    | .ok _ => none
    | .error code => some code

def required (s : Session) (paths : List Text) : Program (List Text) :=
  match requireInputs paths with
  | .ok inputs => pure inputs
  | .error e => Program.commandError s.console.color (.inputs e)

def scan (w : World) (s : Session) (values : OptionValues) (paths : List Text) :
    Program ExitCode := do
  let done ← (← required s paths).mapM (scanInput w s)
  if 0 ≤ s.verbosity ∨ values.format ≠ .default then
    s.print (Report.scan s.console values.format (values.nodes || 0 < s.verbosity) (results done))
  pure (ExitCode.worst (failures done))

end Shebang.CommandLine

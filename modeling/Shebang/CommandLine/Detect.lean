import Shebang.CommandLine.Scan
import Shebang.Detect
import Shebang.Report.Language

/-!
The commands on languages: which one a file is written in, which ones are configured, and the
version of the program.
-/

namespace Shebang.CommandLine

def loadConfig (w : World) (s : Session) (values : OptionValues) : Program Config := do
  let sources : Config.Sources := {
    directory := if values.noConfig then none else some w.workingDirectory
    extras := values.configFiles.map Path.ofText
    collation := if values.mergeConfig then .merge else .revise }
  match ← s.attempt (Config.resolve w.files w.toml sources) with
  | .ok config => pure config
  | .error (.config e) => Program.commandError s.console.color (.config e)
  | .error e => Program.fail (.load e)

/-- Detects the language of one file. A failure is reported, and its exit code is what is left. -/
def detectInput (w : World) (s : Session) (registry : Registry) (argument : Text) :
    Program (Except ExitCode DetectedFile) := do
  let path := Path.ofText argument
  match w.files.isFile path with
  | .error e => Program.fail (.load (.notOpened e))
  | .ok false =>
    s.error (argument ++ ": no such file")
    pure (.error .fileNotFound)
  | .ok true =>
    match ← s.attempt (registry.detect w.files path) with
    | .ok language => pure (.ok ⟨argument, language⟩)
    | .error (.notOpened e) => Program.fail (.load (.notOpened e))
    | .error e =>
      s.error (argument ++ ": " ++ e.message)
      pure (.error .unsupportedFileType)

def detect (w : World) (s : Session) (values : OptionValues) (paths : List Text) :
    Program ExitCode := do
  let registry := Registry.ofConfig (← loadConfig w s values)
  let done ← (← required s paths).mapM (detectInput w s registry)
  s.print (Report.detected s.console values.format s.verbosity (results done))
  pure (ExitCode.worst (failures done))

def languages (w : World) (s : Session) (values : OptionValues) : Program ExitCode := do
  let config ← loadConfig w s values
  s.print (Report.configured s.console values.format s.verbosity config
    (Registry.ofConfig config).languages)
  pure .success

def showVersion (s : Session) (values : OptionValues) : Program ExitCode := do
  s.print (Report.versionOf s.console values.format s.verbosity)
  pure .success

end Shebang.CommandLine

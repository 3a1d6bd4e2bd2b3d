import Shebang.CommandLine.Run
import Shebang.Toml.Document

/-!
The program on a real system. All files that the arguments mention are read before the run, and what
the run has written goes out after it.
-/

namespace Shebang.Main

open CommandLine

/-- The names under which a run may look for files. -/
def mentionedNames (workingDirectory : Except Refusal Path) (arguments : List Text) : List Text :=
  let configured : List Path :=
    match workingDirectory with
    | .error _ => []
    | .ok here => [projectFileName, toolFileName].map here.join
  let given : List Text :=
    match Scope.program.read arguments with
    | .ok ⟨_, name :: rest⟩ =>
      match Command.ofName? name with
      | none => []
      | some c =>
        match (Scope.command c).read rest with
        | .ok a => a.positionals ++ a.values .config
        | .error _ => []
    | _ => []
  given ++ (given.map fun t => (Path.ofText t).display) ++ configured.map Path.display

/-- The number and the text of a system error. An input or output error stands for those that say
neither. -/
def details : IO.Error → Nat × String
  | .noFileOrDirectory _ number text => (number.toNat, text)
  | .inappropriateType _ number text => (number.toNat, text)
  | .invalidArgument _ number text => (number.toNat, text)
  | .permissionDenied _ number text => (number.toNat, text)
  | _ => (5, "Input/output error")

def refusal (e : IO.Error) : Refusal :=
  let (number, text) := details e
  if named : text.toList ≠ [] then ⟨number, text.toList, named⟩
  else ⟨number, "Unknown error", by decide⟩

def look (name : Text) : IO Lookup := do
  let path := (IO.FS.DirEntry.mk "." (String.ofList name)).path
  match ← path.metadata.toBaseIO with
  | .error e => pure (.refused (refusal e))
  | .ok found =>
    if found.type matches .dir then
      match ← (IO.FS.Handle.mk path .read).toBaseIO with
      | .error e => pure (.directory (refusal e))
      | .ok _ => pure (.directory .isDirectory)
    else match ← (IO.FS.readBinFile path).toBaseIO with
      | .error e => pure (.unopened (refusal e))
      | .ok content => pure (.regular content.toList)

def readAll (input : IO.FS.Stream) : IO Bytes := do
  let mut bytes := ByteArray.empty
  repeat
    let more ← input.read 65536
    if more.isEmpty then break
    bytes := bytes ++ more
  pure bytes.toList

/-- The lines of this text have no numbers while it runs. -/
def ownPlace : Log.Place := ⟨toolName, 0, "main"⟩

def world (arguments : List Text) : IO World := do
  let workingDirectory : Except Refusal Path :=
    match ← IO.currentDir.toBaseIO with
    | .error e => .error (refusal e)
    | .ok here => .ok (Path.ofText here.toString.toList)
  let names := (mentionedNames workingDirectory arguments).filter fun t =>
    t != [] && !t.contains '\x00'
  let files ← names.mapM fun name => do pure (name, ← look name)
  let setting (name : String) : IO (Option Text) := do pure ((← IO.getEnv name).map String.toList)
  pure {
    files := ⟨fun t => (OrderedMap.find? t files).getD (.refused .noEntry)⟩
    toml := Toml.parse
    places := fun _ => ownPlace
    workingDirectory
    stdin := ← if arguments.contains stdinMark then readAll (← IO.getStdin) else pure []
    environment := {
      forceColor := ← setting "FORCE_COLOR"
      noColor := ← setting "NO_COLOR"
      logLevel := ← setting "SHEBANGSCAN_LOG_LEVEL" }
    terminal := ← (← IO.getStdout).isTty }

def write : Emission → IO Unit
  | .out text => do
    let out ← IO.getStdout
    out.putStr (String.ofList text)
    out.flush
  | .err text => do (← IO.getStderr).putStr (String.ofList text)

end Shebang.Main

def main (arguments : List String) : IO UInt32 := do
  let arguments := arguments.map String.toList
  let world ← Shebang.Main.world arguments
  let outcome := Shebang.CommandLine.run world arguments
  outcome.emissions.forM Shebang.Main.write
  match outcome.ending with
  | .exit _ => pure ()
  | .fault cause => (← IO.getStderr).putStrLn (String.ofList cause.message)
  pure outcome.ending.code.toUInt32
